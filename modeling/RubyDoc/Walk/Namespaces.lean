import RubyDoc.Walk.Context

/-!
# Opening classes and modules

The name of a class or module is resolved against the namespace around it, and
namespaces missing on the way are made as placeholders. Opening a class again
fills in what was not known; a module that turns out to be a class is replaced
by one that takes over its children and attributes.
-/

namespace RubyDoc

/-- The path of a class or module declaration. -/
def declaredPath (c : Context) (n : Node) : Except Fault String :=
  match n.child? "name" with
  | some name => name.legible.map (ObjectPath.qualify c.home.path)
  | none => .error (.nameless n.kind n.line)

/-- The written superclass of a class, without blanks. -/
def superclassOf (n : Node) : Except Fault (Option String) :=
  match n.child? "superclass" with
  | none => .ok none
  | some superclass =>
    match (superclass.namedChildren.filter fun e => !e.isComment).head? with
    | none => .ok none
    | some expression => expression.legible.map fun text => some (Text.withoutBlanks text)

/-- The handle of the namespace stored at a path. -/
def handleAt (path : String) : Action Handle :=
  Action.inStore fun s => (((s.find? path).bind Entity.members?).getD {}).handle path

/-- A class that is opened again: a superclass and a docstring are filled in if
there were none. -/
def reopenClass (superclass : Option String) (docstring : String) (e : Entity) : Entity :=
  let e := if e.docstring == "" then { e with docstring } else e
  match e.kind with
  | .classSpace m known =>
    if superclass.any (· != "") && known.all (· == "") then
      { e with kind := .classSpace m superclass }
    else e
  | _ => e

/-- The members that a class takes over from what was at its path. -/
def inheritedMembers (existing : Option Entity) : Members :=
  (existing.bind Entity.members?).getD {}

/-- Register the class that a declaration opens. The result is the path that it
is registered at. -/
def openClass (c : Context) (n : Node) (path : String) : Action String := do
  let (home, name) := ObjectPath.split path
  let _ ← Action.ensureNamespace home
  let superclass ← Action.ofExcept (superclassOf n)
  let docstring ← c.docstringOf n
  let existing ← Action.inStore fun s => s.find? path
  let opened ← if existing.any Entity.isClass then do
      Action.changeStore fun s => s.modify path (reopenClass superclass docstring)
      pure path
    else do
      let e := c.declaredAt n
        { name, home, docstring, kind := .classSpace (inheritedMembers existing) superclass }
      Action.register e
      pure e.path
  Action.note .debug .namespaces ("Processing class " ++ path)
  return opened

/-- Register the module that a declaration opens. The result is the path that
it is registered at. -/
def openModule (c : Context) (n : Node) (path : String) : Action String := do
  let (home, name) := ObjectPath.split path
  let _ ← Action.ensureNamespace home
  let existing ← Action.inStore fun s => s.find? path
  if existing.any Entity.isModule then
    if existing.any fun e => e.docstring == "" then
      let docstring ← c.docstringOf n
      Action.changeStore fun s => s.modify path fun e => { e with docstring }
    return path
  else
    let docstring ← c.docstringOf n
    let e := c.declaredAt n { Entity.placeholder home name with docstring }
    Action.register e
    return e.path

end RubyDoc
