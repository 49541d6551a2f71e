import RubyDoc.ObjectPath

/-!
# Documented objects

An entity is one documented object: a namespace, a constant or a method. It is
known by its path, which follows from its name, the path of the namespace it
belongs to, and its kind. Namespaces list their children and keep a table of
attributes for either scope; one that comes from outside may lack a table.
-/

namespace RubyDoc

/-- Whether a method belongs to the instances of a class or to the class. -/
inductive Scope where
  | onInstances | onClass
deriving DecidableEq

/-- Who may call a method. -/
inductive Visibility where
  | everyone | relatives | itself
deriving DecidableEq

namespace Scope

/-- The name a scope is shown by. -/
def name : Scope → String
  | onInstances => "instance"
  | onClass => "class"

/-- The scope of a name. -/
def ofName? : String → Option Scope
  | "instance" => some onInstances
  | "class" => some onClass
  | _ => none

end Scope

namespace Visibility

/-- The keyword of a visibility. -/
def name : Visibility → String
  | everyone => "public"
  | relatives => "protected"
  | itself => "private"

/-- The visibility of a keyword. -/
def ofName? : String → Option Visibility
  | "public" => some everyone
  | "protected" => some relatives
  | "private" => some itself
  | _ => none

end Visibility

/-- The paths of the reader and the writer of one attribute. -/
structure Slots where
  /-- The reader, if there is one. -/
  read : Option String := none
  /-- The writer, if there is one. -/
  write : Option String := none
deriving DecidableEq

/-- Attributes by name, in the order in which they were first declared. -/
abbrev AttributeTable := List (String × Slots)

namespace AttributeTable

/-- Put an attribute in, or give one that is there other slots. -/
def put (name : String) (slots : Slots) : AttributeTable → AttributeTable
  | [] => [(name, slots)]
  | (n, s) :: rest => if n == name then (n, slots) :: rest else (n, s) :: put name slots rest

end AttributeTable

/-- What a namespace holds. -/
structure Members where
  /-- Tells apart the namespaces that were registered at one path in turn. -/
  serial : Nat := 0
  /-- The paths of the children, in order of registration. -/
  children : List String := []
  /-- The attributes of instances, if there is a table of them. -/
  ofInstances : Option AttributeTable := some []
  /-- The attributes of the namespace itself, if there is a table of them. -/
  ofClass : Option AttributeTable := some []
deriving DecidableEq

namespace Members

/-- The attribute table of a scope, if there is one. -/
def attributes (m : Members) : Scope → Option AttributeTable
  | .onInstances => m.ofInstances
  | .onClass => m.ofClass

/-- The scopes that there are attribute tables for. -/
def scopes (m : Members) : List Scope :=
  [Scope.onInstances, .onClass].filter fun scope => (m.attributes scope).isSome

/-- Put an attribute into the table of a scope, if there is one. -/
def putAttribute (m : Members) (scope : Scope) (name : String) (slots : Slots) : Members :=
  match scope with
  | .onInstances => { m with ofInstances := m.ofInstances.map (AttributeTable.put name slots) }
  | .onClass => { m with ofClass := m.ofClass.map (AttributeTable.put name slots) }

/-- List a child that is not listed yet. -/
def adopt (m : Members) (path : String) : Members :=
  if m.children.contains path then m else { m with children := m.children ++ [path] }

end Members

/-- What is special to a method. -/
structure MethodFacts where
  /-- Whether it is called on instances or on the class. -/
  scope : Scope := .onInstances
  /-- Who may call it. -/
  visibility : Visibility := .everyone
  /-- Parameter names with their default sources; the names of keyword
  parameters end with a colon. -/
  parameters : List (String × Option String) := []
  /-- Whether it is written with `def`; unknown for accessors. -/
  explicit : Option Bool := none
deriving DecidableEq

/-- The kinds of documented objects, with what is special to each. -/
inductive EntityKind where
  /-- The namespace around everything. -/
  | root (members : Members)
  /-- A module, or the placeholder of a namespace not seen yet. -/
  | moduleSpace (members : Members)
  /-- A class. -/
  | classSpace (members : Members) (superclass : Option String)
  /-- A constant with the source of its value. -/
  | constant (value : String)
  /-- A method. -/
  | method (facts : MethodFacts)
deriving DecidableEq

namespace EntityKind

/-- The name that a kind is shown by. -/
def name : EntityKind → String
  | root _ => "root"
  | moduleSpace _ => "module"
  | classSpace _ _ => "class"
  | constant _ => "constant"
  | method _ => "method"

/-- The members of a namespace. -/
def members? : EntityKind → Option Members
  | root m | moduleSpace m | classSpace m _ => some m
  | constant _ | method _ => none

/-- Change the members of a namespace. -/
def mapMembers (f : Members → Members) : EntityKind → EntityKind
  | root m => root (f m)
  | moduleSpace m => moduleSpace (f m)
  | classSpace m superclass => classSpace (f m) superclass
  | constant value => constant value
  | method facts => method facts

end EntityKind

/-- A documented object. -/
structure Entity where
  /-- Its own name. -/
  name : String
  /-- The path of the namespace it belongs to. -/
  home : String := ""
  /-- Its raw docstring. -/
  docstring : String := ""
  /-- Its source text. -/
  source : Option String := none
  /-- The file it was declared in. -/
  file : Option String := none
  /-- The line it was declared on. -/
  line : Option Int := none
  /-- What it is. -/
  kind : EntityKind
deriving DecidableEq

namespace Entity

/-- The path that an entity is known by. -/
def path (e : Entity) : String :=
  match e.kind with
  | .root _ => ""
  | .method facts =>
    match facts.scope with
    | .onInstances => e.home ++ "#" ++ e.name
    | .onClass => e.home ++ "." ++ e.name
  | _ => ObjectPath.join e.home e.name

/-- The members of a namespace. -/
def members? (e : Entity) : Option Members := e.kind.members?

/-- Whether an entity is a namespace. -/
def isNamespace (e : Entity) : Bool := e.members?.isSome

/-- Whether an entity is a module. -/
def isModule (e : Entity) : Bool :=
  match e.kind with
  | .moduleSpace _ => true
  | _ => false

/-- Whether an entity is a class. -/
def isClass (e : Entity) : Bool :=
  match e.kind with
  | .classSpace _ _ => true
  | _ => false

/-- What is special to a method. -/
def facts? (e : Entity) : Option MethodFacts :=
  match e.kind with
  | .method facts => some facts
  | _ => none

/-- Whether an entity is a method. -/
def isMethod (e : Entity) : Bool := e.facts?.isSome

/-- Change the members of a namespace. -/
def mapMembers (f : Members → Members) (e : Entity) : Entity :=
  { e with kind := e.kind.mapMembers f }

/-- Change what is special to a method. -/
def mapFacts (f : MethodFacts → MethodFacts) (e : Entity) : Entity :=
  match e.kind with
  | .method facts => { e with kind := .method (f facts) }
  | _ => e

/-- A method by itself. -/
def newMethod (home name : String) (scope : Scope) : Entity :=
  { name, home, kind := .method { scope } }

/-- The root namespace. -/
def newRoot : Entity := { name := "", kind := .root {} }

/-- The placeholder of a namespace. -/
def placeholder (home name : String) : Entity := { name, home, kind := .moduleSpace {} }

end Entity

end RubyDoc
