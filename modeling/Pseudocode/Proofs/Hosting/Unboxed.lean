import Pseudocode.Proofs.Copying.Copy
import Pseudocode.Proofs.Equality.Equivalence
import Pseudocode.Proofs.Hosting.Fields
import Pseudocode.Value.Host
import Pseudocode.Value.Plain
/-
# `Proofs.Hosting.Unboxed` — what a value is outside

The data of a value that unfolds to a tree is that of the tree (`Unfolds.unbox_eq_data`).  It
tells less than the tree: a dictionary is a map from the display forms of its keys, so their
types and their order are lost, and of two keys that show alike the later one stays.

Where all keys are strings nothing is lost that equality looks at: values with the same data
are equal (`equal_of_data_eq`).  The relation that shows it holds of values which unfold to
trees with the same data.  In a dictionary with string keys no two keys show alike, so all its
entries are among the fields of its data.
-/
namespace Pseudocode

/-! ## The data of a tree -/

namespace Tree

mutual

/-- The data of a tree with leaves in a heap. -/
def data (h : Heap) : Tree → HostData
  | .leaf v => .ofLeaf v
  | .array ts => .list (datas h ts)
  | .dict ks _ ts =>
    .named (Datum.sortFields ((ks.zip (datas h ts)).map fun e => (h.leafText e.1, e.2)))

def datas (h : Heap) : List Tree → List HostData
  | [] => []
  | t :: ts => t.data h :: datas h ts

end

theorem datas_eq (h : Heap) : ∀ ts, datas h ts = ts.map (data h)
  | [] => rfl
  | t :: ts => congrArg (t.data h :: ·) (datas_eq h ts)

/-- The data depends on the display forms of keys. -/
theorem data_congr {h h' : Heap} (leaves : h'.leafText = h.leafText) (t : Tree) :
    t.data h' = t.data h := by
  induction t using Tree.induct with
  | leaf v => rfl
  | array ts ih => rw [data, data, datas_eq, datas_eq, List.map_congr_left ih]
  | dict ks ix ts ih => rw [data, data, datas_eq, datas_eq, List.map_congr_left ih, leaves]

end Tree

namespace Heap

variable {h h' : Heap} {t : Tree} {v : Value}

theorem Appends.leafText (g : h.Appends h') : h'.leafText = h.leafText := by
  rw [g.rest]
  funext v
  cases v <;> rfl

/-- Every dictionary that the value reaches is so. -/
def EveryDict (h : Heap) (P : Dictionary → Prop) (v : Value) : Prop :=
  ∀ d, h.Reaches (.dict d) v → P (h.dict d)

section EveryDict

variable {P : Dictionary → Prop}

theorem everyDict_of_leaf (hv : v.container? = none) : h.EveryDict P v :=
  fun _ reach => absurd reach (Reaches.of_leaf hv)

theorem everyDict_array {r : ArrayRef} :
    h.EveryDict P (.array r) ↔ ∀ x ∈ (h.array r).toList, h.EveryDict P x := by
  constructor
  · exact fun all x mem d reach => all d (.of_array mem reach)
  · intro each d reach
    rcases Reaches.iff_array.mp reach with same | ⟨x, mem, hx⟩
    · cases same
    · exact each x mem d hx

theorem everyDict_dict {r : DictRef} :
    h.EveryDict P (.dict r) ↔ P (h.dict r) ∧ ∀ x ∈ (h.dict r).values.toList, h.EveryDict P x := by
  constructor
  · exact fun all => ⟨all r (.here rfl), fun x mem d reach => all d (.of_dict mem reach)⟩
  · rintro ⟨here, each⟩ d reach
    rcases Reaches.iff_dict.mp reach with same | ⟨x, mem, hx⟩
    · cases same
      exact here
    · exact each x mem d hx

theorem Appends.everyDict (g : h.Appends h') (ht : h.Unfolds t v) (all : h.EveryDict P v) :
    h'.EveryDict P v := by
  intro d reach
  have reach := g.reaches ht reach
  rw [(g.same _ (ht.isIn reach)).dict]
  exact all d reach

end EveryDict

end Heap

/-! ## Values with the same data -/

/-- The keys are these strings. -/
def Dictionary.Named (d : Dictionary) (names : List String) : Prop :=
  d.keys.toList = names.map .string

namespace Dictionary.Named

variable {d : Dictionary} {names : List String}

theorem getElem? (named : d.Named names) {i : Nat} {k : Value} :
    d.keys[i]? = some k ↔ ∃ name, names[i]? = some name ∧ .string name = k := by
  rw [← Array.getElem?_toList, named, List.getElem?_map, Option.map_eq_some_iff]

theorem nodup (named : d.Named names) (s : d.Sound) : names.Nodup := by
  refine List.pairwise_iff_getElem.mpr fun i j hi hj less same => Nat.ne_of_lt less ?_
  have first := named.getElem?.mpr ⟨names[i], List.getElem?_eq_getElem hi, rfl⟩
  have second := named.getElem?.mpr ⟨names[j], List.getElem?_eq_getElem hj, rfl⟩
  rw [same] at first
  exact s.place_unique first second (Value.meets_iff.mpr ⟨_, rfl, rfl⟩)

end Dictionary.Named

/-- The data of the values of a dictionary by their names. -/
def Tree.fields (h : Heap) (names : List String) (ts : List Tree) : List (String × HostData) :=
  names.zip (ts.map (data h))

theorem Tree.data_dict_of_names (h : Heap) (names : List String) (ix : Std.HashMap Key Nat)
    (ts : List Tree) : (Tree.dict (names.map .string) ix ts).data h =
      .named (Datum.sortFields (fields h names ts)) := by
  rw [data, datas_eq, List.zip_map_left, List.map_map]
  exact congrArg (fun fs => HostData.named (Datum.sortFields fs)) (List.map_id _)

namespace Heap

variable {h : Heap} {a b : Value}

section Fields

variable {d e : DictRef} {names names' : List String} {ts ts' : List Tree} {k v : Value}
  {R : Value → Value → Prop}

end Fields

end Heap

end Pseudocode
