import RubyDoc.Node.LevelOrder
import RubyDoc.Entity

/-!
# Outlines

The outline of a source says what each statement at namespace level is: a
declaration of some sort, with the statements inside it, or nothing that is
documented. What stands inside method bodies is no part of it. Telling what a
statement is may need its text; if that cuts a character the statement is
illegible, which is a fault of whatever encloses it.
-/

namespace RubyDoc

/-- A statement at namespace level. -/
inductive Statement where
  /-- Nothing that is documented. -/
  | plain (site : Site)
  /-- A statement that cannot be told because its text cuts a character. -/
  | illegible (site : Site)
  /-- A signature, with its block. -/
  | signature (site : Site) (block : Site)
  /-- A visibility keyword by itself. -/
  | keyword (site : Site) (visibility : Visibility)
  /-- A visibility keyword with arguments. -/
  | restriction (site : Site) (visibility : Visibility) (arguments : List Statement)
  /-- A class with its body. -/
  | classBody (site : Site) (body : List Statement)
  /-- A module with its body. -/
  | moduleBody (site : Site) (body : List Statement)
  /-- The body that defines methods of the class itself. -/
  | singletonBody (site : Site) (body : List Statement)
  /-- A method definition. -/
  | method (site : Site)
  /-- Accessors: whether they read and whether they write. -/
  | accessors (site : Site) (read write : Bool)
  /-- An assignment to a constant. -/
  | constant (site : Site)
  /-- The values of an enumeration, with their block. -/
  | enumValues (site : Site) (block : Site)
  /-- A struct field. -/
  | field (site : Site) (isProp : Bool)

namespace Statement

/-- Where a statement stands. -/
def site : Statement → Site
  | plain s | illegible s | signature s _ | keyword s _ | restriction s _ _ | classBody s _
  | moduleBody s _ | singletonBody s _ | method s | accessors s _ _ | constant s
  | enumValues s _ | field s _ => s

/-- The node of a statement. -/
def node (s : Statement) : Node := s.site.node

end Statement

/-- The rules that statements are documented by. All of them are for statements
at namespace level alone. -/
inductive Rule where
  | signature | visibility | classBody | moduleBody | singletonBody
  | method | accessors | constant | enumValues | field
deriving DecidableEq

namespace Rule

/-- The name that log entries know a rule by. -/
def name : Rule → String
  | signature => "sig"
  | visibility => "visibility"
  | classBody => "class"
  | moduleBody => "module"
  | singletonBody => "singleton_class"
  | method => "method"
  | accessors => "attribute"
  | constant => "constant"
  | enumValues => "enums"
  | field => "struct_field"

/-- Every rule, in the order in which they are consulted. -/
def all : List Rule :=
  [signature, visibility, classBody, moduleBody, singletonBody, method, accessors, constant,
    enumValues, field]

end Rule

namespace Node

/-- The name and value of an assignment to a constant. -/
def constantAssignment (n : Node) : Option (Node × Node) :=
  if n.kind == "assignment" then
    match n.child? "left", n.child? "right" with
    | some left, some right => if left.kind == "constant" then some (left, right) else none
    | _, _ => none
  else none

/-- Which accessors a call defines: readers, writers. -/
def accessorsOf? : String → Option (Bool × Bool)
  | "attr" | "attr_reader" => some (true, false)
  | "attr_writer" => some (false, true)
  | "attr_accessor" => some (true, true)
  | _ => none

end Node

/-- What a statement is before anything inside it is looked at. -/
inductive Form where
  | plain | illegible
  | signature (block : Site)
  | keyword (visibility : Visibility)
  | restriction (visibility : Visibility)
  | classBody | moduleBody | singletonBody
  | method
  | accessors (read write : Bool)
  | constant
  | enumValues (block : Site)
  | field (isProp : Bool)

namespace Form

/-- The form of a call without receiver, by its name. -/
def ofCall (n : Node) (name : String) : Form :=
  match Visibility.ofName? name, Node.accessorsOf? name, n.childSite? "block" with
  | some visibility, _, _ =>
    if n.arguments.isEmpty then keyword visibility else restriction visibility
  | none, some (read, write), _ => accessors read write
  | none, none, block =>
    if name == "sig" then block.elim plain signature
    else if name == "enums" then block.elim plain enumValues
    else if (name == "const" || name == "prop") && !n.positionalArguments.isEmpty then
      field (name == "prop")
    else plain

/-- The form of a node by its kind. -/
def ofNode (n : Node) : Form :=
  if n.kind == "identifier" then
    match n.legible with
    | .ok text => (Visibility.ofName? text).elim plain keyword
    | .error _ => illegible
  else if n.kind == "class" then classBody
  else if n.kind == "module" then moduleBody
  else if n.kind == "singleton_class" then
    match n.child? "value" with
    | none => plain
    | some value =>
      match value.legible with
      | .ok text => if text == "self" then singletonBody else plain
      | .error _ => illegible
  else if Node.methodKinds.contains n.kind then method
  else if n.constantAssignment.isSome then constant
  else if n.isCall && (n.child? "receiver").isNone then
    match n.callName with
    | .ok (some name) => ofCall n name
    | .ok none => plain
    | .error _ => illegible
  else plain

end Form

namespace Site

theorem weight_lt_of_mem {s t : Site} {ts : List Site} (mem : t ∈ ts)
    (total : Site.totalWeight ts < s.node.weight) : t.node.weight < s.node.weight :=
  Nat.lt_of_le_of_lt (Node.weight_le_of_mem (List.mem_map_of_mem mem)) total

/-- What the statement at a site is. -/
def statement (s : Site) : Statement :=
  match Form.ofNode s.node with
  | .plain => .plain s
  | .illegible => .illegible s
  | .signature block => .signature s block
  | .keyword visibility => .keyword s visibility
  | .restriction visibility =>
    .restriction s visibility (s.node.argumentSites.attach.map fun a => a.1.statement)
  | .classBody => .classBody s (s.node.bodySites.attach.map fun b => b.1.statement)
  | .moduleBody => .moduleBody s (s.node.bodySites.attach.map fun b => b.1.statement)
  | .singletonBody => .singletonBody s (s.node.bodySites.attach.map fun b => b.1.statement)
  | .method => .method s
  | .accessors read write => .accessors s read write
  | .constant => .constant s
  | .enumValues block => .enumValues s block
  | .field isProp => .field s isProp
termination_by s.node.weight
decreasing_by
  · exact weight_lt_of_mem a.2 (Node.totalWeight_argumentSites _)
  · exact weight_lt_of_mem b.2 (Node.totalWeight_bodySites _)
  · exact weight_lt_of_mem b.2 (Node.totalWeight_bodySites _)
  · exact weight_lt_of_mem b.2 (Node.totalWeight_bodySites _)

end Site

/-- The statements of a source at the top level. -/
def Node.outline (root : Node) : List Statement := root.bodySites.map Site.statement

end RubyDoc
