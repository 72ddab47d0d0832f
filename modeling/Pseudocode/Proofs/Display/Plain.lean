import Pseudocode.Proofs.Copying.Tree
import Pseudocode.Proofs.Dictionary.Ledger
import Pseudocode.Proofs.Execution.Session
import Pseudocode.Proofs.Execution.Settling
/-
# `Proofs.Display.Plain` — values that are displayed without their own methods

There are two ways to display a value.  The interpreter goes through arrays and dictionaries and
asks every class and instance that it comes to for `STR` and `REPR`; the plain forms, which a host
gets, never do.  If nothing that is shown has such a property (`Heap.Plain`) then the two agree,
and nothing is changed by asking (`displayed_as_host`).  The induction is on the tree to which the
value unfolds.  The values of a session that has been reached do unfold (`Heap.Sound.unfolds`), and
its dictionaries are those that operations make (`Session.Reachable.built`).
-/
namespace Pseudocode

namespace Heap

variable {h : Heap}

/-! ## Values without display methods -/

/-- The display of the first value comprises the second: itself, or something in the arrays and
dictionaries that it is made of. -/
inductive Comprises (h : Heap) : Value → Value → Prop
  | self (v : Value) : Comprises h v v
  | element {r : ArrayRef} {v u : Value} : v ∈ (h.array r).toList → Comprises h v u →
      Comprises h (.array r) u
  | key {r : DictRef} {v u : Value} : v ∈ (h.dict r).keys.toList → Comprises h v u →
      Comprises h (.dict r) u
  | value {r : DictRef} {v u : Value} : v ∈ (h.dict r).values.toList → Comprises h v u →
      Comprises h (.dict r) u

/-- No class and no instance that is shown has a property that displays it. -/
def Plain (h : Heap) (v : Value) : Prop :=
  ∀ u, h.Comprises v u → Run.displayMethod? h u "STR" = none ∧ Run.displayMethod? h u "REPR" = none

namespace Plain

theorem leaf {v : Value} (leaf : v.container? = none)
    (noStr : Run.displayMethod? h v "STR" = none)
    (noRepr : Run.displayMethod? h v "REPR" = none) : h.Plain v := by
  intro u shown
  cases shown with
  | self => exact ⟨noStr, noRepr⟩
  | element mem rest => cases leaf
  | key mem rest => cases leaf
  | value mem rest => cases leaf

theorem array {r : ArrayRef} (elements : ∀ v ∈ (h.array r).toList, h.Plain v) :
    h.Plain (.array r) := by
  intro u shown
  cases shown with
  | self => exact ⟨rfl, rfl⟩
  | element mem rest => exact elements _ mem u rest

theorem dict {r : DictRef} (keys : ∀ k ∈ (h.dict r).keys.toList, h.Plain k)
    (values : ∀ v ∈ (h.dict r).values.toList, h.Plain v) : h.Plain (.dict r) := by
  intro u shown
  cases shown with
  | self => exact ⟨rfl, rfl⟩
  | key mem rest => exact keys _ mem u rest
  | value mem rest => exact values _ mem u rest

end Plain

/-! ## Plain forms of containers -/

theorem repr_leaf {v : Value} (hv : v.container? = none) : h.repr v = h.leafRepr v :=
  reprTo_eq_leafRepr hv _

theorem Unfolds.repr_array {ts : List Tree} {r : ArrayRef} (ht : h.Unfolds (.array ts) (.array r)) :
    h.repr (.array r) = bracketed ((h.array r).toList.map h.repr) := by
  have text := ht.repr_eq_text
  obtain ⟨r, same, -, all⟩ := unfolds_array.mp ht
  cases same
  rw [text, Tree.text, Tree.texts_eq]
  exact congrArg bracketed (map_eq_map_of_forall₂ all fun t _ x hx => hx.repr_eq_text).symm

theorem Unfolds.repr_dict {ks : List Value} {ix : Std.HashMap Key Nat} {ts : List Tree}
    {r : DictRef} (ht : h.Unfolds (.dict ks ix ts) (.dict r)) :
    h.repr (.dict r) =
      braced ((h.dict r).toList.map fun e => entryText (h.repr e.1) (h.repr e.2)) := by
  have text := ht.repr_eq_text
  obtain ⟨r, same, -, rfl, -, hkeys, all⟩ := unfolds_dict.mp ht
  cases same
  have parts := map_eq_map_of_forall₂ all fun t _ x hx => hx.repr_eq_text
  rw [text, Tree.text, Tree.texts_eq, ← parts, List.zip_map_right, List.map_map]
  refine congrArg braced (List.map_congr_left fun e he => ?_)
  exact congrArg (entryText · _) (repr_leaf (hkeys e.1 (List.of_mem_zip he).1)).symm

/-! ## Values that unfold -/

theorem Shallow.unfolds {n : Nat} {rank : Container → Nat} (hc : h.Closed (h.extent n))
    (hr : h.IsRank rank) : ∀ (depth : Nat) {v : Value}, Shallow n h rank depth v →
      ∃ t, h.Unfolds t v := by
  intro depth
  induction depth with
  | zero => exact fun hv => ⟨_, unfolds_of_leaf hv.container?⟩
  | succ depth ih =>
    intro v hv
    cases v with
    | array r =>
      obtain ⟨ts, all⟩ := exists_forall₂ fun x hx => ih (hv.array hc hr (.refl h) x hx)
      exact ⟨.array ts, unfolds_array.mpr ⟨r, rfl, hv.1, all⟩⟩
    | dict r =>
      obtain ⟨ts, all⟩ := exists_forall₂ fun x hx => ih (hv.dict hc hr (.refl h) x hx)
      have leaves : ∀ k ∈ (h.dict r).keys.toList, k.container? = none := by
        intro k mem
        have hashable := (hc.dict r).keys.toArray k (Array.mem_toList_iff.mp mem)
        cases k with
        | array q => exact absurd rfl hashable
        | dict q => exact absurd rfl hashable
        | _ => rfl
      exact ⟨.dict _ _ ts, unfolds_dict.mpr ⟨r, rfl, hv.1, rfl, rfl, leaves, all⟩⟩
    | _ => exact ⟨_, unfolds_of_leaf rfl⟩

/-- Every value of a sound heap unfolds to a tree. -/
theorem Sound.unfolds {n : Nat} (hs : h.Sound n) {v : Value} (hv : v.Within (h.extent n)) :
    ∃ t, h.Unfolds t v := by
  obtain ⟨rank, hr⟩ := hs.ranked
  exact (hr.shallow hv (Nat.le_refl _)).unfolds hs.closed hr

end Heap

/-! ## Displaying step by step -/

namespace Run

variable {r : Recursor} {env : Env} {w : World} {v : Value}

theorem str_plain (none : displayMethod? w.heap v "STR" = none) :
    str r v env w = strContainer r v env w := by
  rw [str, Eval.inHeap_bind, none]

theorem repr_plain (none : displayMethod? w.heap v "REPR" = none) (other : ∀ s, v ≠ .string s) :
    repr r v env w = str r v env w := by
  rw [repr, Eval.inHeap_bind, none]
  exact other

/-- Going over the places of a list is going over the list. -/
theorem map_range_eq {α β : Type} {xs : List α} {f : Nat → β} {g : α → β}
    (each : ∀ i (h : i < xs.length), f i = g xs[i]) : (List.range xs.length).map f = xs.map g := by
  apply List.ext_getElem (by rw [List.length_map, List.length_map, List.length_range])
  intro i hi _
  rw [List.length_map, List.length_range] at hi
  rw [List.getElem_map, List.getElem_map, List.getElem_range, each i hi]

/-- What is seen at a place of a view that was just taken is what stands there. -/
theorem seen_here {s : Slots} {i : Nat} (inside : i < s.toArray.toList.length) :
    (s.seen? s.view i).getD .none = s.toArray.toList[i] := by
  have filled : i < s.size := by rwa [Array.length_toList, Slots.size_toArray] at inside
  rw [Slots.seen?_view s filled, ← Slots.getElem?_toArray, ← Array.getElem?_toList,
    List.getElem?_eq_getElem inside, Option.getD_some]

theorem settles_elements {a : ArrayRef}
    (each : ∀ x ∈ (w.heap.array a).toList,
      Settles (fun n => (run n).repr x) env w (w.heap.repr x) w) :
    Settles (fun n => reprElements (run n) a) env w ((w.heap.array a).toList.map w.heap.repr) w := by
  have size : (w.heap.slots a).view.size = (w.heap.array a).toList.length := by
    rw [Array.length_toList, Heap.array, Slots.size_toArray, Slots.view]
  have shown : (List.range (w.heap.slots a).view.size).map (fun i => w.heap.repr
      (((w.heap.slots a).seen? (w.heap.slots a).view i).getD .none)) =
        (w.heap.array a).toList.map w.heap.repr := by
    rw [size]
    exact map_range_eq fun i inside => congrArg w.heap.repr (seen_here inside)
  have taken : Settles (fun _ => Eval.inHeap fun h => (h.slots a).view) env w
      (w.heap.slots a).view w := .always fun _ => rfl
  refine taken.bind ?_
  rw [← shown]
  refine .mapM fun i mem => ?_
  have inside : i < (w.heap.array a).toList.length := by
    rwa [List.mem_range, size] at mem
  have seen : Settles (fun _ => Eval.inHeap fun h =>
      ((h.slots a).seen? (w.heap.slots a).view i).getD .none) env w
      (((w.heap.slots a).seen? (w.heap.slots a).view i).getD .none) w := .always fun _ => rfl
  refine seen.bind ?_
  rw [seen_here inside]
  exact each _ (List.getElem_mem inside)

theorem settles_entries {d : DictRef} (sound : (w.heap.dict d).Sound)
    (key : ∀ k ∈ (w.heap.dict d).keys.toList,
      Settles (fun n => (run n).repr k) env w (w.heap.repr k) w)
    (value : ∀ x ∈ (w.heap.dict d).values.toList,
      Settles (fun n => (run n).repr x) env w (w.heap.repr x) w) :
    Settles (fun n => reprEntries (run n) d) env w
      ((w.heap.dict d).toList.map fun e => entryText (w.heap.repr e.1) (w.heap.repr e.2)) w := by
  let view := (w.heap.dict d).slots.view
  let seenKey (i : Nat) : Value := ((w.heap.dict d).slots.seen? view i).getD .none
  let seenValue (i : Nat) : Value := (w.heap.dict d).values.getD i .none
  have even : (w.heap.dict d).values.toList.length = (w.heap.dict d).keys.toList.length := sound.even
  have size : view.size = (w.heap.dict d).keys.toList.length := by
    rw [Array.length_toList, Dictionary.keys, Slots.size_toArray]
    rfl
  have zipped : (w.heap.dict d).toList.length = view.size := by
    rw [Dictionary.toList, List.length_zip, even, Nat.min_self, size]
  have keyHere {i : Nat} (inside : i < (w.heap.dict d).keys.toList.length) :
      seenKey i = (w.heap.dict d).keys.toList[i] := seen_here inside
  have valueHere {i : Nat} (inside : i < (w.heap.dict d).values.toList.length) :
      seenValue i = (w.heap.dict d).values.toList[i] := by
    change (w.heap.dict d).values.getD i .none = _
    rw [Array.getD_eq_getD_getElem?, ← Array.getElem?_toList, List.getElem?_eq_getElem inside,
      Option.getD_some]
  have shown : (List.range view.size).map (fun i => entryText (w.heap.repr (seenKey i))
      (w.heap.repr (seenValue i))) =
        (w.heap.dict d).toList.map fun e => entryText (w.heap.repr e.1) (w.heap.repr e.2) := by
    rw [← zipped]
    refine map_range_eq fun i inside => ?_
    rw [zipped, size] at inside
    rw [keyHere inside, valueHere (even ▸ inside)]
    simp only [Dictionary.toList, List.getElem_zip]
  have taken : Settles (fun _ => Eval.inHeap fun h => (h.dict d).slots.view) env w view w :=
    .always fun _ => rfl
  refine taken.bind ?_
  rw [← shown]
  refine .mapM fun i mem => ?_
  have inside : i < (w.heap.dict d).keys.toList.length := by rwa [List.mem_range, size] at mem
  have keySeen : Settles (fun _ => Eval.inHeap fun h =>
      ((h.dict d).slots.seen? view i).getD .none) env w (seenKey i) w := .always fun _ => rfl
  have valueSeen : Settles (fun _ => Eval.inHeap fun h => (h.dict d).values.getD i .none) env w
      (seenValue i) w := .always fun _ => rfl
  have keyShown := key _ (List.getElem_mem inside)
  have valueShown := value _ (List.getElem_mem (even ▸ inside))
  rw [← keyHere inside] at keyShown
  rw [← valueHere (even ▸ inside)] at valueShown
  exact keySeen.bind (keyShown.bind (valueSeen.bind (valueShown.bind (.always fun _ => rfl))))

/-- Without display methods both forms are those that the container makes. -/
theorem settles_both (plain : w.heap.Plain v)
    (container : Settles (fun n => strContainer (run n) v) env w (w.heap.text v) w) :
    Settles (fun n => (run n).str v) env w (w.heap.text v) w ∧
      Settles (fun n => (run n).repr v) env w (w.heap.repr v) w := by
  obtain ⟨noStr, noRepr⟩ := plain v (.self v)
  have str : Settles (fun n => str (run n) v) env w (w.heap.text v) w :=
    container.of_eq fun n => str_plain noStr
  refine ⟨.step str, .step ?_⟩
  by_cases quoted : ∃ s, v = .string s
  · obtain ⟨s, rfl⟩ := quoted
    exact .always fun n => rfl
  · have other (s : String) : v ≠ .string s := fun same => quoted ⟨s, same⟩
    have same : w.heap.text v = w.heap.repr v := by
      rw [Heap.text]
      exact other
    rw [← same]
    exact str.of_eq fun n => repr_plain noRepr other

theorem settles_leaf (leaf : v.container? = none) (plain : w.heap.Plain v) :
    Settles (fun n => (run n).str v) env w (w.heap.text v) w ∧
      Settles (fun n => (run n).repr v) env w (w.heap.repr v) w := by
  refine settles_both plain (.always fun n => ?_)
  cases v with
  | array r => cases leaf
  | dict r => cases leaf
  | _ => rfl

/-- The display of a value that unfolds to a tree is its plain form. -/
theorem settles_display (built : w.heap.Built) (t : Tree) : ∀ {v : Value}, w.heap.Unfolds t v →
    w.heap.Plain v →
      Settles (fun n => (run n).str v) env w (w.heap.text v) w ∧
        Settles (fun n => (run n).repr v) env w (w.heap.repr v) w := by
  induction t using Tree.induct with
  | leaf u =>
    intro v ht plain
    obtain ⟨rfl, leaf⟩ := ht
    exact settles_leaf leaf plain
  | array ts ih =>
    intro v ht plain
    obtain ⟨r, rfl, -, all⟩ := Heap.unfolds_array.mp ht
    have each : ∀ x ∈ (w.heap.array r).toList,
        Settles (fun n => (run n).repr x) env w (w.heap.repr x) w := by
      intro x mem
      obtain ⟨t, ht, hx⟩ := exists_left_of_mem all x mem
      exact (ih t ht hx fun u shown => plain u (.element mem shown)).2
    refine settles_both plain ?_
    change Settles _ env w (w.heap.repr (.array r)) w
    rw [ht.repr_array]
    exact (settles_elements each).bind (.always fun _ => rfl)
  | dict ks ix ts ih =>
    intro v ht plain
    obtain ⟨r, rfl, -, rfl, -, leaves, all⟩ := Heap.unfolds_dict.mp ht
    have key : ∀ k ∈ (w.heap.dict r).keys.toList,
        Settles (fun n => (run n).repr k) env w (w.heap.repr k) w := by
      intro k mem
      exact (settles_leaf (leaves k mem) fun u shown => plain u (.key mem shown)).2
    have value : ∀ x ∈ (w.heap.dict r).values.toList,
        Settles (fun n => (run n).repr x) env w (w.heap.repr x) w := by
      intro x mem
      obtain ⟨t, ht, hx⟩ := exists_left_of_mem all x mem
      exact (ih t ht hx fun u shown => plain u (.value mem shown)).2
    refine settles_both plain ?_
    change Settles _ env w (w.heap.repr (.dict r)) w
    rw [ht.repr_dict]
    exact (settles_entries (built.dict r).sound key value).bind (.always fun _ => rfl)

end Run

/-- A reachable session displays its values in that way. -/
theorem Session.Reachable.settles_display {s : Session} (hs : s.Reachable) {v : Value}
    (hv : v.Within s.world.extent) (plain : s.world.heap.Plain v) (env : Env) :
    Settles (fun n => (Run.run n).str v) env s.world (s.world.heap.text v) s.world ∧
      Settles (fun n => (Run.run n).repr v) env s.world (s.world.heap.repr v) s.world := by
  obtain ⟨t, ht⟩ := (hs.ready.sound trivial).unfolds hv
  exact Run.settles_display hs.built t ht plain

/-- The interpreter displays a value in which no class and no instance displays itself as a host
does, both by itself and as within a container, and changes nothing. -/
theorem displayed_as_host {w : World} (built : w.heap.Built) {v : Value}
    (finite : ∃ t, w.heap.Unfolds t v) (plain : w.heap.Plain v) (env : Env) :
    Settles (fun n => (Run.run n).str v) env w (w.heap.text v) w ∧
      Settles (fun n => (Run.run n).repr v) env w (w.heap.repr v) w := by
  obtain ⟨t, ht⟩ := finite
  exact Run.settles_display built t ht plain

/-- An array holds another one, a dictionary under whose key the same array stands, and a class
that has a property of another name. -/
theorem displayed_as_host_nested :
    ∃ w : World, (w.heap.array ⟨1⟩).toList = [.array ⟨0⟩, .dict ⟨0⟩, .classType ⟨0⟩] ∧
      (w.heap.dict ⟨0⟩).values.toList = [.array ⟨0⟩] ∧
      Settles (fun n => (Run.run n).str (.array ⟨1⟩))
        ⟨(default : Session.Options).setup, Session.main⟩ w
        "[[1, 'a'], \x7b'k': [1, 'a']\x7d, <class definition C>]" w := by
  let d := Dictionary.empty.insert (.string "k") (.array ⟨0⟩)
  let made := ((((Heap.empty.newArray #[.int 1, .string "a"]).2.newDict d).2.newArray
    #[.array ⟨0⟩, .dict ⟨0⟩, .classType ⟨0⟩]).2.newClass ⟨"C", [("SIZE", .int 1)]⟩).2
  let w : World := { Session.rootedWorld default with heap := made }
  have values : d.values = #[.array ⟨0⟩] := by
    simp [d, Dictionary.insert, Value.keyForm, Dictionary.empty, Dictionary.push]
  have keys : d.keys = #[.string "k"] := by
    simp [d, Dictionary.insert, Value.keyForm, Dictionary.empty, Dictionary.push, Dictionary.keys,
      Slots.empty]
  have inner : w.heap.Unfolds (.array [.leaf (.int 1), .leaf (.string "a")]) (.array ⟨0⟩) :=
    Heap.unfolds_array.mpr ⟨⟨0⟩, rfl, by decide,
      .cons (Heap.unfolds_of_leaf rfl) (.cons (Heap.unfolds_of_leaf rfl) .nil)⟩
  have entry : w.heap.Unfolds
      (.dict [.string "k"] d.index [.array [.leaf (.int 1), .leaf (.string "a")]]) (.dict ⟨0⟩) := by
    refine Heap.unfolds_dict.mpr ⟨⟨0⟩, rfl, by decide, congrArg Array.toList keys, rfl,
      List.forall_mem_singleton.mpr rfl, ?_⟩
    rw [show (w.heap.dict ⟨0⟩).values = d.values from rfl, values]
    exact .cons inner .nil
  have whole : w.heap.Unfolds _ (.array ⟨1⟩) := Heap.unfolds_array.mpr ⟨⟨1⟩, rfl, by decide,
    .cons inner (.cons entry (.cons (Heap.unfolds_of_leaf rfl) .nil))⟩
  have built : w.heap.Built := by
    intro e mem
    obtain rfl := Array.mem_singleton.mp mem
    exact .insert_of_key .empty (by decide) _
  have innerPlain : w.heap.Plain (.array ⟨0⟩) := by
    refine .array (List.forall_mem_cons.mpr ⟨.leaf rfl rfl rfl, ?_⟩)
    exact List.forall_mem_singleton.mpr (.leaf rfl rfl rfl)
  have entryPlain : w.heap.Plain (.dict ⟨0⟩) := by
    refine .dict ?_ ?_
    · rw [show (w.heap.dict ⟨0⟩).keys = d.keys from rfl, keys]
      exact List.forall_mem_singleton.mpr (.leaf rfl rfl rfl)
    · rw [show (w.heap.dict ⟨0⟩).values = d.values from rfl, values]
      exact List.forall_mem_singleton.mpr innerPlain
  have plain : w.heap.Plain (.array ⟨1⟩) := by
    refine .array (List.forall_mem_cons.mpr ⟨innerPlain, List.forall_mem_cons.mpr ⟨entryPlain, ?_⟩⟩)
    exact List.forall_mem_singleton.mpr (.leaf rfl rfl rfl)
  have shown := (displayed_as_host built ⟨_, whole⟩ plain
    ⟨(default : Session.Options).setup, Session.main⟩).1
  rw [show w.heap.text (.array ⟨1⟩) = w.heap.repr (.array ⟨1⟩) from rfl, whole.repr_eq_text] at shown
  exact ⟨w, rfl, congrArg Array.toList values, shown⟩

end Pseudocode
