/-
# `Value.Table` — named entries

A table holds one entry per name, in the order in which the names came.
-/
namespace Pseudocode

/-- Entries by name. -/
abbrev Table (α : Type) := List (String × α)

namespace Table

variable {α : Type}

/-- The entry of a name. -/
def get? : Table α → String → Option α
  | [], _ => none
  | (k, v) :: rest, name => if k = name then some v else get? rest name

/-- Has the table an entry for the name? -/
def has (t : Table α) (name : String) : Bool := (t.get? name).isSome

/-- Replaces the entry of a name, or adds one at the end. -/
def put : Table α → String → α → Table α
  | [], name, v => [(name, v)]
  | (k, w) :: rest, name, v =>
    if k = name then (k, v) :: rest else (k, w) :: put rest name v

theorem get?_cons (k : String) (w : α) (rest : Table α) (name : String) :
    get? ((k, w) :: rest) name = if k = name then some w else get? rest name := rfl

theorem put_cons (k : String) (w : α) (rest : Table α) (name : String) (v : α) :
    put ((k, w) :: rest) name v =
      if k = name then (k, v) :: rest else (k, w) :: put rest name v := rfl

/-- The names in order. -/
def names (t : Table α) : List String := t.map Prod.fst

@[simp] theorem get?_put_self (t : Table α) (name : String) (v : α) :
    (t.put name v).get? name = some v := by
  induction t with
  | nil => exact if_pos rfl
  | cons e rest ih =>
    obtain ⟨k, w⟩ := e
    by_cases h : k = name <;> simp [put_cons, get?_cons, h, ih]

theorem get?_put_of_ne (t : Table α) {name other : String} (v : α) (h : name ≠ other) :
    (t.put name v).get? other = t.get? other := by
  induction t with
  | nil => exact if_neg h
  | cons e rest ih =>
    obtain ⟨k, w⟩ := e
    by_cases hk : k = name
    · simp [put_cons, get?_cons, hk, h]
    · simp [put_cons, get?_cons, hk, ih]

theorem mem_names_iff {t : Table α} {name : String} : name ∈ t.names ↔ t.has name := by
  induction t with
  | nil => exact iff_of_false List.not_mem_nil Bool.false_ne_true
  | cons e rest ih =>
    obtain ⟨k, v⟩ := e
    simp only [names, has] at ih
    by_cases hk : k = name
    · simp [names, has, get?_cons, hk]
    · simp [names, has, get?_cons, hk, Ne.symm hk, ih]

end Table

/-- Names in ascending order, each once. -/
def sortNames (names : List String) : List String :=
  (names.mergeSort (fun a b => decide (a ≤ b))).eraseReps

end Pseudocode
