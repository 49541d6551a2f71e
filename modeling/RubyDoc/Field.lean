/-!
# Struct fields

The fields that `const` and `prop` declare are collected per namespace, so
that a constructor can be made of them when the class body closes. A class
that is opened again adds to its fields. The ledger also remembers how many
fields the last constructor of a namespace was made of.
-/

namespace RubyDoc

/-- A field as it was declared. -/
structure FieldRecord where
  /-- The path of the namespace it was declared in. -/
  home : String
  /-- Its name. -/
  name : String
  /-- Its documentation types. -/
  types : List String
  /-- Its comment. -/
  doc : String := ""
  /-- The source of the declaration. -/
  source : String := ""
  /-- The source of its default, if one is written. -/
  default : Option String := none
  /-- Whether it can be written to. -/
  mutable : Bool := false
deriving DecidableEq

/-- Whether nil is among the types of a field. -/
def FieldRecord.isNilable (f : FieldRecord) : Bool := f.types.contains "nil"

/-- The fields of all namespaces. -/
structure Ledger where
  /-- Namespaces in the order of their first field, with their fields. -/
  entries : List (String × List FieldRecord) := []
  /-- How many fields of a namespace its last constructor was made of. -/
  synthesised : List (String × Nat) := []

namespace Ledger

/-- Put a field behind those of its namespace. -/
def appendIn (f : FieldRecord) :
    List (String × List FieldRecord) → List (String × List FieldRecord)
  | [] => [(f.home, [f])]
  | (home, fields) :: rest =>
    if home == f.home then (home, fields ++ [f]) :: rest else (home, fields) :: appendIn f rest

/-- Record a field. -/
def append (l : Ledger) (f : FieldRecord) : Ledger := { l with entries := appendIn f l.entries }

/-- The fields of a namespace in the order of declaration. -/
def fieldsFor (l : Ledger) (home : String) : List FieldRecord := (l.entries.lookup home).getD []

/-- Whether a namespace has a field of a name. -/
def hasField (l : Ledger) (home name : String) : Bool :=
  (l.fieldsFor home).any fun f => f.name == name

/-- Note that a constructor was made of all fields recorded so far. -/
def markSynthesised (l : Ledger) (home : String) : Ledger :=
  { l with synthesised := (home, (l.fieldsFor home).length) :: l.synthesised }

/-- The namespaces with fields that no constructor was made of. -/
def unsynthesised (l : Ledger) : List String :=
  (l.entries.filter fun entry =>
    (l.synthesised.lookup entry.1).getD 0 < entry.2.length).map Prod.fst

end Ledger

/-- The keyword parameters of a constructor made of fields. Without a default
of its own a field that may be nil defaults to nil. -/
def constructorParameters (fields : List FieldRecord) : List (String × Option String) :=
  fields.map fun f =>
    (f.name ++ ":",
      match f.default with
      | some d => if d == "" then (if f.isNilable then some "nil" else none) else some d
      | none => if f.isNilable then some "nil" else none)

end RubyDoc
