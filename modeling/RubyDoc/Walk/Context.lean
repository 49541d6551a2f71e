import RubyDoc.Records
import RubyDoc.Config.Basic

/-!
# Contexts

A context says where a statement is read: in which source and namespace, for
which scope, and with which visibility for what it defines. Registering within
a context records the file and the line of the declaration.
-/

namespace RubyDoc

/-- Where a statement is read. -/
structure Context where
  /-- The source. -/
  source : Source
  /-- The settings of the run. -/
  config : Config
  /-- The namespace around the statement. -/
  home : Handle
  /-- The scope of methods defined here. -/
  scope : Scope := .onInstances
  /-- The visibility of methods defined here. -/
  visibility : Visibility := .everyone

namespace Context

/-- The context of the body of a namespace. -/
def inside (c : Context) (home : Handle) (scope : Scope := .onInstances) : Context :=
  { c with home, scope, visibility := .everyone }

/-- The docstring of a node. -/
def docstringOf (c : Context) (n : Node) : Action String := do
  Action.ofExcept (c.source.docstringOf (← get).overridden n)

/-- An entity declared by a node of this source. -/
def declaredAt (c : Context) (n : Node) (e : Entity) : Entity :=
  { e with file := some c.source.path, line := some n.line }

/-- Put an attribute of the namespace into the table of the scope. -/
def putAttribute (c : Context) (name : String) (slots : Slots) : Action Unit := do
  if !c.home.scopes.contains c.scope then throw (.tableMissing c.home.path)
  Action.changeStore fun s => s.editMembers c.home fun m => m.putAttribute c.scope name slots

end Context

/-- The text of a node. -/
def Node.read (n : Node) : Action String := Action.ofExcept n.legible

end RubyDoc
