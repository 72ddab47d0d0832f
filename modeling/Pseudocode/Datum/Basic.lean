/-
# `Datum.Basic` — plain data

Structured data without behaviour: what a program tree is shown as, and what is
read from and written to JSON.  The fields of an object keep the order in which
they were given.
-/
namespace Pseudocode

/-- Plain data. -/
inductive Datum where
  | null
  | bool (value : Bool)
  | int (value : Int)
  | real (value : Float)
  | text (value : String)
  | list (items : List Datum)
  | object (fields : List (String × Datum))

instance : Inhabited Datum := ⟨.null⟩

end Pseudocode
