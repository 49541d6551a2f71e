import RubyDoc.Walk.Context
import RubyDoc.Node.LevelOrder
import RubyDoc.Docstring.Directives
import RubyDoc.TypeExpr.Printer

/-!
# Signatures

A signature gives parameter and return types to the definition that follows
it. Its block is gone through in level order, so that a `returns` at the end
of a chain is met before the `params` inside; the tags are written parameters
first all the same. Types nested in the arguments of these calls are not met.
-/

namespace RubyDoc

/-- What the calls of a signature block say. -/
structure SignatureFacts where
  /-- Parameters with their types, as far as met. -/
  params : List (String × List String) := []
  /-- The return types met last. -/
  returns : Option (List String) := none
  /-- Whether the definition is abstract. -/
  abstract : Bool := false

namespace SignatureFacts

/-- The word that a site of the block says: a call's name, or an identifier
that is not itself the name of a call. -/
def wordAt (s : Site) : Except Fault (Option String) :=
  if s.node.kind == "identifier" && !s.isMethodName then s.node.legible.map some
  else if s.node.isCall then s.node.callName
  else .ok none

/-- The types of keyword arguments. -/
def readParams : Keywords → Reading (List (String × List String))
  | [] => return []
  | (name, value) :: rest => do
    let types ← convert value
    return (name, types) :: (← readParams rest)

/-- Go on with one site of the block. -/
def meet (facts : SignatureFacts) (s : Site) : Reading SignatureFacts := do
  match ← Reading.ofExcept (wordAt s) with
  | some "params" =>
    if s.node.isCall then
      let keywords ← Reading.ofExcept s.node.keywordArguments
      return { facts with params := facts.params ++ (← readParams keywords) }
    else return facts
  | some "returns" =>
    if s.node.isCall then
      let positional := s.node.positionalArguments
      let types ← convertOptional (positional ++ s.node.arguments).head?
      return { facts with returns := some types }
    else return facts
  | some "void" => return { facts with returns := some [TypeExpr.voidType] }
  | some "abstract" => return { facts with abstract := true }
  | _ => return facts

/-- Go on with the sites of the block. -/
def meetAll (facts : SignatureFacts) : List Site → Reading SignatureFacts
  | [] => return facts
  | s :: rest => do meetAll (← facts.meet s) rest

/-- Read a signature block. -/
def ofBlock (block : Site) : Reading SignatureFacts := do
  let (visited, fault) := block.levelOrder
  let facts ← meetAll {} visited
  match fault with
  | some f => throw f
  | none => return facts

/-- Write what a signature says into a docstring. -/
def apply (facts : SignatureFacts) (d : Docstring) : Docstring :=
  let withParams := facts.params.foldl (fun d p => d.upsertTag "param" (some p.2) (some p.1)) d
  let withReturn := match facts.returns with
    | some types => withParams.upsertTag "return" (some types)
    | none => withParams
  if facts.abstract then withReturn.upsertTag "abstract" else withReturn

end SignatureFacts

/-- Write what a signature block says into a docstring. -/
def applySignature (block : Site) (d : Docstring) : Reading Docstring := do
  return (← SignatureFacts.ofBlock block).apply d

/-- The first text that is not empty, the later ones not being asked for then. -/
def firstNonEmpty : List (Action String) → Action String
  | [] => return ""
  | [last] => last
  | ask :: rest => do
    let text ← ask
    if text == "" then firstNonEmpty rest else return text

/-- The statement after a signature, and the definition that it is about. -/
def signatureTargets (s : Site) : Except Fault (Site × Site) := do
  let following ← s.next
  let target ← following.signatureTarget
  return (following, target)

/-- A method that was registered from the definition before its signature was
met gets the docstring too. -/
def updateDocstring (c : Context) (target : Node) (docstring : String) : Action Unit := do
  if Node.methodKinds.contains target.kind then
    if let some nameNode := target.child? "name" then
      let scope := if target.kind == "singleton_method" then Scope.onClass else c.scope
      let name ← nameNode.read
      let path := (Entity.newMethod c.home.path name scope).path
      Action.changeStore fun s => s.editMethod path fun e =>
        if e.line == some (target.line : Int) then { e with docstring } else e

/-- Attach a signature to the definition after it. -/
def processSignature (c : Context) (s block : Site) : Action Unit := do
  match signatureTargets s with
  | .error fault =>
    if fault.isNodeMissing then
      Action.note .warning .signatures
        ("Signature at " ++ c.source.path ++ ":" ++ toString s.node.line ++
          " does not precede a definition: " ++ fault.message)
    else throw fault
  | .ok (following, target) =>
    let raw ← firstNonEmpty
      [c.docstringOf s.node, c.docstringOf following.node, c.docstringOf target.node]
    let (docstring, directives) := extractDirectives raw
    let signed ← Action.ofReading (applySignature block docstring)
    let result := addDirectives signed.print directives
    modify fun r => { r with overridden := (target.node.key, result) :: r.overridden }
    updateDocstring c target.node result

end RubyDoc
