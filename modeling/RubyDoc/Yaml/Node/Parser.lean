import RubyDoc.Yaml.Scalar
import RubyDoc.Yaml.Token.Stream

/-!
# Nodes from tokens

The tokens of a text make up one document. A node may have a name and a tag in
front; a name that was given stands for its node from then on, and inside it as
well. Nodes that are left out stand for null. Recursions are bounded by the
number of tokens.
-/

namespace RubyDoc.Yaml

/-- Tokens that are being read. -/
structure Reader where
  /-- The tokens that are left. -/
  tokens : List Token
  /-- Why there are no more of them. -/
  fault : Fault
  /-- The short forms of tags. -/
  handles : List (String × String) := []
  /-- The nodes that were read. -/
  nodes : Array Node := #[]
  /-- The places of the nodes that have a name. -/
  anchors : List (String × Nat) := []

/-- A step of reading tokens. -/
abbrev Parse := StateT Reader (Except Fault)

namespace Parse

/-- The next token. -/
def peek : Parse Token := do
  let r ← get
  match r.tokens with
  | token :: _ => return token
  | [] => throw r.fault

/-- Pass a token. -/
def pass : Parse Unit := modify fun r => { r with tokens := r.tokens.drop 1 }

/-- Take a token. -/
def next : Parse Token := do
  let token ← peek
  pass
  return token

/-- Whether the next token is one of some. -/
def isAt (tokens : List Token) : Parse Bool := return tokens.contains (← peek)

/-- Pass a token that has to come next. -/
def expect (token : Token) : Parse Unit := do
  if (← next) != token then throw .malformed

/-- Pass a token if it comes next, and say whether it did. -/
def accept (token : Token) : Parse Bool := do
  if (← peek) == token then
    pass
    return true
  else return false

/-- Take an anchor that comes next. -/
def anchor? : Parse (Option String) := do
  match ← peek with
  | .anchor name =>
    pass
    return some name
  | _ => return none

/-- Take a tag that comes next. -/
def tag? : Parse (Option (Option String × String)) := do
  match ← peek with
  | .tag handle suffix =>
    pass
    return some (handle, suffix)
  | _ => return none

/-- The address that a tag stands for. -/
def addressOf (tag : Option String × String) : Parse String := do
  match tag with
  | (none, suffix) => return suffix
  | (some handle, suffix) =>
    match (← get).handles.lookup handle with
    | some expansion => return expansion ++ suffix
    | none => throw .malformed

/-- Put a node behind the others; its place. -/
def add (node : Node) : Parse Nat := do
  let place := (← get).nodes.size
  modify fun r => { r with nodes := r.nodes.push node }
  return place

/-- Put a node at the place of another one. -/
def replace (place : Nat) (node : Node) : Parse Unit :=
  modify fun r => { r with nodes := r.nodes.setIfInBounds place node }

/-- Give the node at a place a name. -/
def define (name? : Option String) (place : Nat) : Parse Unit :=
  match name? with
  | none => return
  | some name => modify fun r => { r with anchors := (name, place) :: r.anchors }

/-- Refuse a name that is given already. -/
def requireNew (name? : Option String) : Parse Unit := do
  let anchors := (← get).anchors
  if name?.any fun name => (anchors.lookup name).isSome then throw .malformed

/-- The place of the node that has a name. -/
def lookUp (name : String) : Parse Nat := do
  match (← get).anchors.lookup name with
  | some place => return place
  | none => throw .malformed

end Parse

open Parse

/-- A node that is left out. -/
def emptyNode : Parse Nat := add (.scalar .null "")

/-- How deep collections may be inside one another. -/
def maxDepth : Nat := 485

/-- What is said of a node in front of it. -/
structure Properties where
  /-- Its name. -/
  name : Option String
  /-- Whether it has a tag at all. -/
  isTagged : Bool
  /-- The address of its tag; none if the tag goes by the form of the node. -/
  address : Option String

/-- Read what is said of a node in front of it: a name and a tag, in either
order. -/
def properties : Parse Properties := do
  let first ← anchor?
  let tag ← tag?
  let name ← if first.isNone && tag.isSome then anchor? else pure first
  match tag with
  | none => return { name, isTagged := false, address := none }
  | some tag =>
    let address ← addressOf tag
    return { name, isTagged := true, address := if address == "!" then none else some address }

namespace Properties

/-- The tag of a collection. -/
def collectionTag (p : Properties) (ownTag : Tag) : Tag := p.address.elim ownTag Tag.ofAddress

/-- The tag of a scalar. One with a bare mark for a tag counts as plain. -/
def scalarTag (p : Properties) (isPlain : Bool) (text : String) : Tag :=
  match p.address with
  | some address => Tag.ofAddress address
  | none => if isPlain || p.isTagged then implicitTag text else .text

/-- Read the inner part of a collection, in which its name stands for it. -/
def collection {α : Type} (p : Properties) (ownTag : Tag) (make : Tag → List α → Node)
    (inner : Parse (List α)) : Parse Nat := do
  let tag := p.collectionTag ownTag
  let place ← add (make tag [])
  define p.name place
  replace place (make tag (← inner))
  return place

/-- A scalar. -/
def scalar (p : Properties) (text : String) (isPlain : Bool) : Parse Nat := do
  let place ← add (.scalar (p.scalarTag isPlain text) text)
  define p.name place
  return place

end Properties

/-- Where a node stands. -/
inductive Standing where
  /-- In a flow collection. -/
  | inFlow
  /-- In a block. -/
  | inBlock
  /-- In a block mapping, where a sequence may stand as deep as its key. -/
  | inEntry
deriving DecidableEq

mutual

/-- Read a node. -/
def node : Nat → Nat → Standing → Parse Nat
  | 0, _, _ => throw .malformed
  | fuel + 1, depth, standing => do
    let first ← peek
    if let .reference name := first then
      pass
      lookUp name
    else
      let p ← properties
      requireNew p.name
      if maxDepth < depth then throw .tooDeep
      match ← peek with
      | .scalar text isPlain =>
        pass
        p.scalar text isPlain
      | .flowSequenceStart =>
        pass
        p.collection .sequence .sequence (flowItems fuel (depth + 1) true)
      | .flowMappingStart =>
        pass
        p.collection .mapping .mapping (flowEntries fuel (depth + 1) true)
      | .blockSequenceStart =>
        if standing == .inFlow then throw .malformed
        pass
        p.collection .sequence .sequence (blockItems fuel (depth + 1))
      | .blockMappingStart =>
        if standing == .inFlow then throw .malformed
        pass
        p.collection .mapping .mapping (blockEntries fuel (depth + 1))
      | token =>
        if token == .blockEntry && standing == .inEntry then
          p.collection .sequence .sequence (sharedItems fuel (depth + 1))
        else if p.name.isSome || p.isTagged then p.scalar "" true
        else throw .malformed

/-- Read a node unless one of some tokens comes instead. -/
def nodeUnless : Nat → Nat → Standing → List Token → Parse Nat
  | 0, _, _, _ => throw .malformed
  | fuel + 1, depth, standing, ends => do
    if ← isAt ends then emptyNode else node fuel depth standing

/-- Read the items of a block sequence to its end. -/
def blockItems : Nat → Nat → Parse (List Nat)
  | 0, _ => throw .malformed
  | fuel + 1, depth => do
    if ← accept .blockEntry then
      let item ← nodeUnless fuel depth .inBlock [.blockEntry, .blockEnd]
      return item :: (← blockItems fuel depth)
    else
      expect .blockEnd
      return []

/-- Read the items of a sequence that stands as deep as its key. -/
def sharedItems : Nat → Nat → Parse (List Nat)
  | 0, _ => throw .malformed
  | fuel + 1, depth => do
    if ← accept .blockEntry then
      let item ← nodeUnless fuel depth .inBlock [.blockEntry, .key, .value, .blockEnd]
      return item :: (← sharedItems fuel depth)
    else return []

/-- Read the entries of a block mapping to its end. -/
def blockEntries : Nat → Nat → Parse (List (Nat × Nat))
  | 0, _ => throw .malformed
  | fuel + 1, depth => do
    if ← accept .key then
      let ends : List Token := [.key, .value, .blockEnd]
      let key ← nodeUnless fuel depth .inEntry ends
      let value ← if ← accept .value then nodeUnless fuel depth .inEntry ends else emptyNode
      return (key, value) :: (← blockEntries fuel depth)
    else
      expect .blockEnd
      return []

/-- Read the items of a flow sequence to its end. The flag says that none was
read yet. -/
def flowItems : Nat → Nat → Bool → Parse (List Nat)
  | 0, _, _ => throw .malformed
  | fuel + 1, depth, isFirst => do
    if ← accept .flowSequenceEnd then return []
    if !isFirst then expect .flowEntry
    if ← accept .flowSequenceEnd then return []
    let ends : List Token := [.flowEntry, .flowSequenceEnd]
    let item ←
      if ← accept .key then do
        let key ← nodeUnless fuel (depth + 1) .inFlow (.value :: ends)
        let value ←
          if ← accept .value then nodeUnless fuel (depth + 1) .inFlow ends else emptyNode
        add (.mapping .mapping [(key, value)])
      else node fuel depth .inFlow
    return item :: (← flowItems fuel depth false)

/-- Read the entries of a flow mapping to its end. The flag says that none was
read yet. -/
def flowEntries : Nat → Nat → Bool → Parse (List (Nat × Nat))
  | 0, _, _ => throw .malformed
  | fuel + 1, depth, isFirst => do
    if ← accept .flowMappingEnd then return []
    if !isFirst then expect .flowEntry
    if ← accept .flowMappingEnd then return []
    let ends : List Token := [.flowEntry, .flowMappingEnd]
    let entry ←
      if ← accept .key then do
        let key ← nodeUnless fuel depth .inFlow (.value :: ends)
        let value ←
          if ← accept .value then nodeUnless fuel depth .inFlow ends else emptyNode
        pure (key, value)
      else do
        let key ← node fuel depth .inFlow
        pure (key, ← emptyNode)
    return entry :: (← flowEntries fuel depth false)

end

/-- The short forms of tags that every document has. -/
def commonHandles : List (String × String) := [("!", "!"), ("!!", "tag:yaml.org,2002:")]

/-- Read the directives in front of a document: at most one version, and short
forms with different marks. -/
def directives : Nat → Bool → List (String × String) → Parse (List (String × String))
  | 0, _, _ => throw .malformed
  | fuel + 1, hasVersion, handles => do
    match ← peek with
    | .directive d =>
      pass
      match d with
      | .version major =>
        if hasVersion || major != 1 then throw .malformed
        directives fuel true handles
      | .shorthand handle expansion =>
        if (handles.lookup handle).isSome then throw .malformed
        directives fuel hasVersion (handles ++ [(handle, expansion)])
      | .reserved => directives fuel hasVersion handles
    | _ => return handles

/-- Pass the marks that end a document. -/
def passEnds : Nat → Parse Unit
  | 0 => throw .malformed
  | fuel + 1 => do
    if ← accept .documentEnd then passEnds fuel

/-- Read the only document of a text, if there is one. -/
def document (fuel : Nat) : Parse (Option Nat) := do
  match ← peek with
  | .streamEnd => return none
  | .directive _ | .documentStart =>
    let handles ← directives fuel false []
    modify fun r => { r with handles := handles ++ commonHandles }
    expect .documentStart
    let root ← match ← peek with
      | .directive _ | .documentStart | .documentEnd | .streamEnd => emptyNode
      | _ => node fuel 1 .inBlock
    passEnds fuel
    expect .streamEnd
    return some root
  | _ =>
    modify fun r => { r with handles := commonHandles }
    let root ← node fuel 1 .inBlock
    passEnds fuel
    expect .streamEnd
    return some root

/-- The nodes of the document that some tokens make up, if there is one. -/
def Graph.ofTokens? (stream : TokenStream) : Except Fault (Option Graph) :=
  (document (4 * stream.tokens.length + 8) |>.run
    { tokens := stream.tokens, fault := stream.fault }).map fun (root?, reader) =>
      root?.map fun root => { nodes := reader.nodes, root }

end RubyDoc.Yaml
