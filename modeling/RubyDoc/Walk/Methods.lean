import RubyDoc.Walk.Context
import RubyDoc.Outline

/-!
# Methods, accessors and visibility

A method definition registers a method with its parameters. Attribute macros
register readers and writers and fill the attribute table. A visibility call
with names changes methods that are registered already.
-/

namespace RubyDoc

namespace Node

/-- The text of a child in a field; empty without one. -/
def fieldText (n : Node) (field : String) : Except Fault String :=
  match n.child? field with
  | some child => child.legible
  | none => .ok ""

/-- One parameter: its name as it is shown, and its default if it has one.
Keyword parameters end with a colon, splats and blocks keep their marks. -/
def parameter? (n : Node) : Except Fault (Option (String × Option String)) := do
  let name ← n.fieldText "name"
  let value ← n.fieldText "value"
  let default := if value == "" then none else some value
  if n.kind == "optional_parameter" then return some (name, default)
  else if n.kind == "keyword_parameter" then return some (name ++ ":", default)
  else if n.isComment then return none
  else return some (← n.legible, none)

/-- The parameters of a method definition. -/
def parameters (n : Node) : Except Fault (List (String × Option String)) :=
  match n.child? "parameters" with
  | some list => (list.namedChildren.mapM parameter?).map fun found => found.filterMap id
  | none => .ok []

end Node

/-- Register a method that is written with `def`. -/
def defineMethod (c : Context) (n : Node) (name : String) (scope : Scope) : Action Unit := do
  let known ← Action.inStore fun s => (s.method? c.home.path name scope).isSome
  let method ← Action.inStore fun s => s.findOrNewMethod c.home.path name scope
  let docstring ← c.docstringOf n
  let method ← Action.revise method fun e => { e with docstring }
  let source ← n.read
  let method ← Action.revise method fun e => { e with source := some source }
  let parameters ← Action.ofExcept n.parameters
  let method ← Action.revise method fun e =>
    c.declaredAt n (e.mapFacts fun f =>
      { f with parameters, visibility := c.visibility, explicit := some true })
  Action.register method known

/-- Read a method definition. One on another object than the class itself is
left out. -/
def processMethod (c : Context) (n : Node) : Action Unit := do
  if let some nameNode := n.child? "name" then
    if n.kind == "singleton_method" then
      let receiver ← Action.ofExcept (match n.child? "object" with
        | some object => object.legible.map some
        | none => .ok none)
      if receiver == some "self" then defineMethod c n (← nameNode.read) .onClass
      else
        Action.note .debug .methods
          ("Skipping singleton method on '" ++ receiver.getD "?" ++ "' at line " ++
            toString n.line)
    else defineMethod c n (← nameNode.read) c.scope

/-- A method that an accessor macro defines. -/
def accessorMethod (c : Context) (name docstring source : String)
    (parameters : List (String × Option String)) : Entity :=
  { name, home := c.home.path, docstring, source := some source
    kind := .method { scope := c.scope, visibility := c.visibility, parameters } }

/-- The text for an accessor without a comment. -/
def readerText (span : String) : String := "Returns the value of attribute " ++ span ++ "."

/-- Register the accessors of one attribute. -/
def defineAccessors (c : Context) (n : Node) (docstring source : String) (read write : Bool)
    (name : String) : Action Unit := do
  let span := c.config.codeSpan name
  let reader := c.declaredAt n (accessorMethod c name
    (if docstring == "" then readerText span else docstring) source [])
  if read then Action.register reader
  let writer := c.declaredAt n (accessorMethod c (name ++ "=")
    ("Sets the attribute " ++ span ++ "\n@param value the value to set the attribute " ++ span ++
      " to.") source [("value", none)])
  if write then Action.register writer
  c.putAttribute name
    { read := if read then some reader.path else none
      write := if write then some writer.path else none }

/-- Go through the names of an accessor macro. -/
def defineAccessorsOfAll (c : Context) (n : Node) (docstring source : String)
    (read write : Bool) : List Node → Action Unit
  | [] => return
  | argument :: rest => do
    if Node.nameKinds.contains argument.kind then
      let name ← Action.ofExcept argument.symbolName
      defineAccessors c n docstring source read write name
    defineAccessorsOfAll c n docstring source read write rest

/-- Read an accessor macro. -/
def processAccessors (c : Context) (n : Node) (read write : Bool) : Action Unit := do
  let docstring ← c.docstringOf n
  let source ← n.read
  defineAccessorsOfAll c n docstring source read write n.positionalArguments

/-- Give a registered method another visibility. -/
def setVisibility (c : Context) (name : String) (visibility : Visibility) : Action Unit := do
  let path := (Entity.newMethod c.home.path name c.scope).path
  if ← Action.inStore fun s => s.contains path then
    Action.changeStore fun s => s.editMethod path (Entity.mapFacts fun f => { f with visibility })
  else Action.note .debug .methods ("Visibility set for unknown method " ++ path)

end RubyDoc
