/-
# `Value.Native` — names for what is in the heap and what is built in

Each kind of heap cell has a type of references of its own, so that an array is
never looked up among the dictionaries.

A builtin function is named by a constructor, together with what it was taken
from: a method of an array carries that array, a function that calls back into
a program carries the interpreter it belongs to.  What each of them does is in
`Builtin` and `Library`.
-/
namespace Pseudocode

/-! ## Names for what lives in the heap -/

/-- Names an array. -/
structure ArrayRef where
  index : Nat
deriving Repr, DecidableEq, Inhabited

/-- Names a dictionary. -/
structure DictRef where
  index : Nat
deriving Repr, DecidableEq, Inhabited

/-- Names a record definition. -/
structure RecordTypeRef where
  index : Nat
deriving Repr, DecidableEq, Inhabited

/-- Names a record built from a definition. -/
structure RecordRef where
  index : Nat
deriving Repr, DecidableEq, Inhabited

/-- Names a class. -/
structure ClassRef where
  index : Nat
deriving Repr, DecidableEq, Inhabited

/-- Names an instance of a class. -/
structure ObjectRef where
  index : Nat
deriving Repr, DecidableEq, Inhabited

/-- Names a module of builtin members. -/
structure LibraryRef where
  index : Nat
deriving Repr, DecidableEq, Inhabited

/-- Names a scope. -/
structure ScopeRef where
  index : Nat
deriving Repr, DecidableEq, Inhabited

/-- Names an interpreter: the one of the program, or that of a module. -/
structure InterpreterId where
  index : Nat
deriving Repr, DecidableEq, Inhabited

/-- What a method belongs to: its class, or the instance it is bound to. -/
inductive Owner where
  | ofClass (ref : ClassRef)
  | ofObject (ref : ObjectRef)
deriving Repr, DecidableEq

/-! ## Builtin functions -/

/-- The functions of the `math` module that map one real to one real. -/
inductive RealFunction where
  | sqrt | fabs | exp | log2 | log10 | sin | cos | tan | asin | acos | atan
  | degrees | radians
deriving Repr, DecidableEq

/-- The functions of the `math` module. -/
inductive MathFunction where
  | unary (f : RealFunction)
  | floor | ceil | pow | atan2 | hypot | log | gcd | factorial | isnan | isinf
deriving Repr, DecidableEq

/-- The functions of the `system` module. -/
inductive SystemFunction where
  | time | now | env | platform | sleep
deriving Repr, DecidableEq

/-- The functions of the `crypto` module. -/
inductive CryptoFunction where
  | hashPassword | verifyPassword | signToken | verifyToken | sha256
deriving Repr, DecidableEq

/-- The functions of the `locale` module. -/
inductive LocaleFunction where
  | formatNumber | formatPercent | formatInt | formatCurrency
deriving Repr, DecidableEq

/-- The functions of the `probe` module, which exercises what extensions can do. -/
inductive ProbeFunction where
  | count | apply | fail | wrapped | bad | mixed | str | repr | write
deriving Repr, DecidableEq

/-- A builtin function. -/
inductive Native where
  | input (home : InterpreterId)
  | len | position | substring
  | stringToInt | stringToReal | intToString | realToString
  | charToCode | codeToChar | randomInt | sqrt
  | toInt | toReal | toBool | toText (home : InterpreterId) | toArray | toDict
  | arrayAppend (a : ArrayRef)
  | arrayPop (a : ArrayRef)
  | arrayInsert (a : ArrayRef)
  | arrayLength (a : ArrayRef)
  | dictKeys (d : DictRef)
  | dictValues (d : DictRef)
  | dictHas (d : DictRef)
  | dictRemove (d : DictRef)
  | dictLength (d : DictRef)
  | textLength (s : String)
  | textUpper (s : String)
  | textLower (s : String)
  | math (f : MathFunction)
  | system (f : SystemFunction)
  | crypto (f : CryptoFunction)
  | locale (f : LocaleFunction)
  | probe (f : ProbeFunction) (home : InterpreterId) (counter : Nat)
  /-- Does nothing. -/
  | inert
deriving Repr, DecidableEq

/-- A builtin function as a value.  Two of them are the same only if they carry
the same number, which is given out once. -/
structure Builtin where
  number : Nat
  name : String
  action : Native
deriving Repr, DecidableEq

end Pseudocode
