import RubyDoc.Entity
import RubyDoc.Field
import RubyDoc.Value

/-!
# Objects and fields from values

Entities and field records that come from outside are read from maps. A name
is required; the other facts keep their defaults if they are not given. Facts
that a kind does not have are ignored.
-/

namespace RubyDoc

open RubyDoc.Value

/-- Read one fact, which keeps its default if it is not given. -/
def readFact {α : Type} (entries : List (Value × Value)) (name : String) (default : α)
    (read : Value → Except Misfit α) : Except Misfit α :=
  match under entries name with
  | some v => read v
  | none => .ok default

/-- Read a fact that has to be given. -/
def readRequired {α : Type} (entries : List (Value × Value)) (name : String)
    (read : Value → Except Misfit α) : Except Misfit α :=
  read ((under entries name).getD .null)

/-- Read a parameter: a name and a default that may be null. -/
def readParameter : Value → Except Misfit (String × Option String)
  | .list [name, default] => do return (← name.toText, ← toOptional toText default)
  | _ => .error .listType

/-- Read the slots of an attribute. -/
def readSlots : Value → Except Misfit Slots
  | .map entries => do
    return { read := ← readFact entries "read" none (toOptional toText)
             write := ← readFact entries "write" none (toOptional toText) }
  | _ => .error .mapType

/-- Read an attribute table. -/
def readTable : Value → Except Misfit AttributeTable
  | .map entries => entries.mapM fun e => do return (← e.1.toText, ← readSlots e.2)
  | _ => .error .mapType

/-- Read the attribute tables of some scopes into members that have none yet. -/
def readTables (entries : List (Value × Value)) : Except Misfit Members :=
  entries.foldlM (fun m e => do
    let table ← readTable e.2
    match ← e.1.toWord Scope.ofName? with
    | .onInstances => return { m with ofInstances := some table }
    | .onClass => return { m with ofClass := some table })
    { ofInstances := none, ofClass := none }

/-- Read the members of a namespace. Tables that are given are all there are;
where none are given there is an empty one for either scope. -/
def readMembers (entries : List (Value × Value)) : Except Misfit Members := do
  let children ← readFact entries "children" [] (toListOf toText)
  let m ← readFact entries "attributes" {} fun
    | .map tables => readTables tables
    | _ => .error .mapType
  return { m with children }

/-- Read what is special to a method. -/
def readFacts (entries : List (Value × Value)) : Except Misfit MethodFacts := do
  return {
    scope := ← readFact entries "scope" .onInstances (toWord Scope.ofName?)
    visibility := ← readFact entries "visibility" .everyone (toWord Visibility.ofName?)
    parameters := ← readFact entries "parameters" [] (toListOf readParameter)
    explicit := ← readFact entries "explicit" none (toOptional toBool) }

/-- Read the kind of an entity. -/
def readKind (entries : List (Value × Value)) : Except Misfit EntityKind := do
  match ← readRequired entries "type" toText with
  | "root" => return .root (← readMembers entries)
  | "module" => return .moduleSpace (← readMembers entries)
  | "class" =>
    return .classSpace (← readMembers entries)
      (← readFact entries "superclass" none (toOptional toText))
  | "constant" => return .constant (← readFact entries "value" "" toText)
  | "method" => return .method (← readFacts entries)
  | _ => throw .literalError

/-- Read the name of an entity; only a root may leave it out. -/
def readName (entries : List (Value × Value)) : EntityKind → Except Misfit String
  | .root _ => readFact entries "name" "" toText
  | _ => readRequired entries "name" toText

/-- Read an entity. -/
def Entity.ofEntries (entries : List (Value × Value)) : Except Misfit Entity := do
  let kind ← readKind entries
  return {
    name := ← readName entries kind
    home := ← readFact entries "namespace" "" toText
    docstring := ← readFact entries "docstring" "" toText
    source := ← readFact entries "source" none (toOptional toText)
    file := ← readFact entries "file" none (toOptional toText)
    line := ← readFact entries "line" none (toOptional toInt)
    kind }

/-- Read a field record. -/
def FieldRecord.ofEntries (entries : List (Value × Value)) : Except Misfit FieldRecord := do
  return {
    home := ← readRequired entries "namespace" toText
    name := ← readRequired entries "name" toText
    types := ← readRequired entries "types" (toListOf toText)
    doc := ← readFact entries "doc" "" toText
    source := ← readFact entries "source" "" toText
    default := ← readFact entries "default" none (toOptional toText)
    mutable := ← readFact entries "mutable" false toBool }

end RubyDoc
