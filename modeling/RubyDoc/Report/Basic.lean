import RubyDoc.Report.Markup
import RubyDoc.Store
import RubyDoc.Text.Lines

/-!
# Reports

What is shown of a store: the tree of its namespaces, or the details of one
object. A report is a list of items; how they are laid out on a terminal is
not said here. Texts taken from sources are escaped, paths are not.
-/

namespace RubyDoc.Report

open RubyDoc.Text

/-- A branch of a printed tree. -/
inductive Branch where
  | node (label : String) (branches : List Branch)

/-- What stands in a frame. -/
inductive Content where
  /-- A text. -/
  | text (s : String)
  /-- Rows of a name and a value. -/
  | rows (rows : List (String × String))
deriving DecidableEq

/-- One printed item. -/
inductive Item where
  /-- A line of text. -/
  | text (s : String)
  /-- A tree. -/
  | tree (root : Branch)
  /-- A frame with a title and a border colour. -/
  | panel (content : Content) (title border : String)

/-- One parameter as it is shown. -/
def shownParameter : String × Option String → String
  | (name, none) => name
  | (name, some default) =>
    if finishesWith ":" name then name ++ " " ++ default else name ++ " = " ++ default

/-- A method with its parameters; other entities have no signature. -/
def signature? (e : Entity) : Option String :=
  e.facts?.map fun facts =>
    e.name ++ "(" ++ String.intercalate ", " (facts.parameters.map shownParameter) ++ ")"

/-- The line of an entity as it is shown. -/
def shownLine : Option Int → String
  | some line => toString line
  | none => "None"

/-- The rows that say where an entity was declared. -/
def placeRows (e : Entity) : List (String × String) :=
  match e.file with
  | some file => if file == "" then [] else [("Defined in", file ++ ":" ++ shownLine e.line)]
  | none => []

/-- The rows that are special to a kind. -/
def kindRows (e : Entity) : List (String × String) :=
  match e.kind with
  | .method facts =>
    ("Visibility", facts.visibility.name) ::
      (if facts.parameters.isEmpty then []
        else [("Parameters", escape ((signature? e).getD ""))])
  | .constant value => [("Value", escape value)]
  | .classSpace _ (some superclass) =>
    if superclass == "" then [] else [("Superclass", superclass)]
  | _ => []

/-- The details of an entity. -/
def details (e : Entity) : List (String × String) :=
  [("Path", e.path), ("Kind", e.kind.name)] ++ placeRows e ++ kindRows e

/-- An object with its docstring and source. -/
def ofEntity (e : Entity) : List Item :=
  [.panel (.rows (details e)) e.path "cyan",
    .panel (.text (if e.docstring == "" then "[dim](undocumented)[/dim]"
      else escape e.docstring)) "Docstring" "green"] ++
  match e.source with
  | some source => if source == "" then [] else [.panel (.text (escape source)) "Source" "blue"]
  | none => []

/-- The label of an entity in a tree. -/
def label (verbose : Bool) (e : Entity) : String :=
  "[cyan]" ++ e.kind.name ++ "[/cyan] " ++ e.path ++
    if verbose && e.docstring != "" then
      " [dim]" ++ escape ((lines e.docstring).headD "") ++ "[/dim]"
    else ""

/-- The branches below a namespace. The number bounds the depth; a store whose
objects are nested deeper than it has objects leads back to itself. -/
def branches (s : Store) (verbose : Bool) : Nat → Entity → Except Fault (List Branch)
  | 0, _ => .error .endless
  | depth + 1, e => do
    let children ← s.childrenOf e.path
    children.mapM fun child =>
      if child.isNamespace then
        (branches s verbose depth child).map (Branch.node (label verbose child))
      else .ok (.node (label verbose child) [])

/-- The tree with some branches at its root. -/
def treeItem (top : List Branch) : Item :=
  .tree (.node "[bold blue]Documented objects[/bold blue]" top)

/-- The line that says how many objects there are. -/
def countItem (n : Nat) : Item :=
  .text ("\n[green]" ++ toString n ++ " object(s) documented[/green]")

/-- The tree of a store and the number of its objects. -/
def ofStore (s : Store) (verbose : Bool) : Except Fault (List Item) := do
  let top ← branches s verbose (s.entries.length + 1) s.root
  return [treeItem top, countItem s.size]

end RubyDoc.Report
