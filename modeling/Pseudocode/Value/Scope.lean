import Pseudocode.Value.Text
/-
# `Value.Scope` — names and what they are bound to

A name is looked up from a scope outwards.  A write always goes to one scope; it
is refused if the name was declared constant in that scope, and reported to the
scope's observer otherwise.
-/
namespace Pseudocode

/-- A write that an observer was told about. -/
structure Event where
  observer : String
  name : String
  /-- The representation of the value after the write. -/
  repr : String
deriving Repr, DecidableEq

namespace Heap

/-- The innermost scope that binds a name, among the `depth` scopes from `s`
outwards, and the value there. -/
def findTo (h : Heap) (name : String) : (depth : Nat) → ScopeRef → Option (ScopeRef × Value)
  | 0, _ => none
  | n + 1, s =>
    match (h.scope s).bindings.get? name with
    | some v => some (s, v)
    | none => (h.scope s).parent.bind (h.findTo name n)

/-- The innermost scope that binds a name, and the value there. -/
def find? (h : Heap) (s : ScopeRef) (name : String) : Option (ScopeRef × Value) :=
  h.findTo name h.scopes.size s

/-- The value a name has in a scope. -/
def lookup? (h : Heap) (s : ScopeRef) (name : String) : Option Value :=
  (h.find? s name).map Prod.snd

/-- Was the name declared constant in this scope itself? -/
def isConstant (h : Heap) (s : ScopeRef) (name : String) : Bool :=
  (h.scope s).constants.contains name

/-- The names bound in a scope itself, in ascending order. -/
def localNames (h : Heap) (s : ScopeRef) : List String := sortNames (h.scope s).bindings.names

/-- The names bound in the `depth` scopes from `s` outwards. -/
def namesTo (h : Heap) : (depth : Nat) → ScopeRef → List String
  | 0, _ => []
  | n + 1, s =>
    (h.scope s).bindings.names ++ ((h.scope s).parent.map (h.namesTo n)).getD []

/-- The names that can be seen from a scope, in ascending order, each once. -/
def visibleNames (h : Heap) (s : ScopeRef) : List String :=
  sortNames (h.namesTo h.scopes.size s)

/-- A scope inside another one.  It has the same observer. -/
def childScope (name : String) (parent : ScopeRef) (h : Heap) : ScopeRef × Heap :=
  h.newScope ⟨name, [], [], some parent, (h.scope parent).observer⟩

/-- A scope without a parent and without an observer. -/
def rootScope (name : String) (h : Heap) : ScopeRef × Heap :=
  h.newScope ⟨name, [], [], none, none⟩

/-- What the observer of a scope is told about a write. -/
def event? (h : Heap) (s : ScopeRef) (name : String) (v : Value) : Option Event :=
  (h.scope s).observer.map fun o => ⟨o, name, h.repr v⟩

/-- Binds a name whatever it was before, possibly as a constant. -/
def bind (s : ScopeRef) (name : String) (v : Value) (constant : Bool) (h : Heap) : Heap :=
  h.modifyScope s fun sc =>
    { sc with
      bindings := sc.bindings.put name v
      constants := if constant then name :: sc.constants else sc.constants }

/-- Binds a name unless it is a constant of the scope. -/
def assign? (s : ScopeRef) (name : String) (v : Value) (h : Heap) : Option Heap :=
  if h.isConstant s name then none else some (h.bind s name v false)

/-- The event of a change inside the value that a name is bound to. -/
def touched? (h : Heap) (s : ScopeRef) (name : String) : Option Event :=
  (h.find? s name).bind fun (owner, v) => h.event? owner name v

end Heap

end Pseudocode
