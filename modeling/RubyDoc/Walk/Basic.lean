import RubyDoc.Outline
import RubyDoc.Walk.Constants
import RubyDoc.Walk.Constructor
import RubyDoc.Walk.Fields
import RubyDoc.Walk.Namespaces
import RubyDoc.Walk.Signature

/-!
# Walking an outline

The statements of a body are gone through in order, each in the context of the
body. A visibility keyword changes the visibility for the statements after it
in the same body and for no other. A statement that ends in a fault is logged
and skipped, keeping what it has registered; only a statement that is illegible
ends the body it stands in, and with it the declaration around that body.
-/

namespace RubyDoc

/-- The visibility in force after a statement. -/
def Statement.visibilityAfter (before : Visibility) : Statement → Visibility
  | keyword _ visibility => visibility
  | _ => before

/-- Run the rule of a statement. A fault is logged with the name of the rule. -/
def Context.guarding (c : Context) (n : Node) (rule : Rule) (action : Action Unit) :
    Action Unit :=
  Action.guarded .statements
    ("Handler '" ++ rule.name ++ "' failed on " ++ c.placeOf n ++ ", skipping statement") action

/-- Make the constructor of a class whose body was gone through. -/
def Context.closeClass (c : Context) (n : Node) (path classPath : String) : Action Unit :=
  Action.guarded .statements ("Class-close hook failed for " ++ classPath)
    (synthesiseConstructor c n path classPath)

mutual

/-- Go through one statement. -/
def walk (c : Context) : Statement → Action Unit
  | .plain _ => return
  | .illegible _ => throw .illegible
  | .keyword _ _ => return
  | .signature s block => c.guarding s.node .signature (processSignature c s block)
  | .restriction s visibility arguments =>
    c.guarding s.node .visibility
      (walkArguments c visibility { c with visibility } arguments)
  | .classBody s body => c.guarding s.node .classBody do
    let path ← Action.ofExcept (declaredPath c s.node)
    let classPath ← openClass c s.node path
    let handle ← handleAt classPath
    walkAll (c.inside handle) body
    c.closeClass s.node path classPath
  | .moduleBody s body => c.guarding s.node .moduleBody do
    let path ← Action.ofExcept (declaredPath c s.node)
    let modulePath ← openModule c s.node path
    let handle ← handleAt modulePath
    walkAll (c.inside handle) body
  | .singletonBody s body =>
    c.guarding s.node .singletonBody (walkAll (c.inside c.home .onClass) body)
  | .method s => c.guarding s.node .method (processMethod c s.node)
  | .accessors s read write =>
    c.guarding s.node .accessors (processAccessors c s.node read write)
  | .constant s => c.guarding s.node .constant (processConstant c s.node)
  | .enumValues s block => c.guarding s.node .enumValues (processEnum c block)
  | .field s isProp => c.guarding s.node .field (processField c s.node isProp)

/-- Go through the statements of a body. -/
def walkAll (c : Context) : List Statement → Action Unit
  | [] => return
  | statement :: rest => do
    walk c statement
    walkAll { c with visibility := statement.visibilityAfter c.visibility } rest

/-- Go through the arguments of a visibility call: names change methods that
are registered, all else is read in the context inside. -/
def walkArguments (c : Context) (visibility : Visibility) (inner : Context) :
    List Statement → Action Unit
  | [] => return
  | argument :: rest => do
    if Node.nameKinds.contains argument.node.kind then
      let name ← Action.ofExcept argument.node.symbolName
      setVisibility c name visibility
    else walk inner argument
    walkArguments c visibility
      { inner with visibility := argument.visibilityAfter inner.visibility } rest

end

/-- Go through a source from its top level. -/
def walkSource (config : Config) (source : Source) : Action Unit :=
  walkAll { source, config, home := Store.rootHandle } source.root.outline

end RubyDoc
